import Monorepo.Proofs.Codemod.LocatorEdit
import Monorepo.Proofs.Codemod.Leaves

/-!
# What the grammar does with the planner's edits

A patch re-parses its text after every edit, so what a second run finds depends on how the
grammar reads what the first run wrote. This module says so once, as laws of a script parser
(`GrammarLaws`): a parse keeps its text and the shapes the locator relies on, string literals are
quoted, and each edit the planner makes (a property added to an object, a value or a shorthand
replaced, an element added to an array, an import added to the file) changes the tree at the
edited node only, into nodes of the shape the planner wrote (`Shape`, `Fits`). The laws are
stated for the layouts the planner reads off a parsed file (`ObjectStyle.Sane`).
-/

namespace Monorepo.Codemod

open Monorepo.Script Monorepo.Json Node

/-- The shape of a value the planner writes, as far as reading it back needs. -/
inductive Shape where
  /-- A string literal with these contents. -/
  | string (s : String)
  /-- `true` or `false`. -/
  | bool (b : Bool)
  /-- A call of this callee. -/
  | call (callee : String)
  /-- An array of one element. -/
  | array (element : Shape)
  /-- An object of one property. -/
  | object (key : String) (value : Shape)

/-- A value of shape `shape` placed under the keys `path`: one object of one property per key. -/
def Shape.under : List String → Shape → Shape
  | [], shape => shape
  | key :: rest, shape => .object key (Shape.under rest shape)

/-- A property key node that reads as `key`: bare, or a string literal in `quote`. -/
def KeyFits (s : Source) (quote : Char) (key : String) (k : Node) : Prop :=
  (k.kind = .propertyIdentifier ∧ k.text s = key) ∨
    (k.kind = .string ∧ k.text s = renderString key quote)

/-- A node the grammar made of text the planner wrote for `shape`, strings in `quote`. -/
def Fits (s : Source) (quote : Char) : Shape → Node → Prop
  | .string str, n => n.kind = .string ∧ n.text s = renderString str quote
  | .bool b, n => n.kind = if b then .trueLiteral else .falseLiteral
  | .call callee, n =>
    n.kind = .callExpression ∧ ∃ f, n.child? .callee = some f ∧ f.text s = callee
  | .array element, n => n.kind = .array ∧ ∃ m, n.members = [m] ∧ Fits s quote element m
  | .object key value, n => n.kind = .object ∧ ∃ m, n.members = [m] ∧ m.kind = .pair ∧
      (∃ k, m.child? .key = some k ∧ KeyFits s quote key k) ∧
      ∃ v, m.child? .value = some v ∧ Fits s quote value v

/-- A member the grammar made of `key: value` as the planner wrote it. -/
def PairFits (s : Source) (quote : Char) (key : String) (value : Shape) (m : Node) : Prop :=
  m.kind = .pair ∧ (∃ k, m.child? .key = some k ∧ KeyFits s quote key k) ∧
    ∃ v, m.child? .value = some v ∧ Fits s quote value v

theorem fits_object {s : Source} {quote : Char} {key : String} {value : Shape} {n : Node} :
    Fits s quote (.object key value) n ↔
      n.kind = .object ∧ ∃ m, n.members = [m] ∧ PairFits s quote key value m :=
  Iff.rfl

/-- Text made of spaces and tabs only. -/
def Indentation (s : String) : Prop := ∀ c ∈ s.toList, c = ' ' ∨ c = '\t'

/-- A layout the planner can read off a parsed file: a quote the grammar has for strings, a line
break, and indentation made of spaces and tabs. -/
structure ObjectStyle.Sane (style : ObjectStyle) : Prop where
  quote : style.quote = '\'' ∨ style.quote = '"'
  newline : style.newline = "\n" ∨ style.newline = "\r\n"
  objectIndent : Indentation style.objectIndent
  propertyIndent : Indentation style.propertyIndent

/-- The words the grammar reads as keywords, or as literals, where an expression starts. -/
def reservedWords : List String :=
  ["break", "case", "catch", "class", "const", "continue", "debugger", "default", "delete", "do",
   "else", "enum", "export", "extends", "false", "finally", "for", "function", "if", "import", "in",
   "instanceof", "new", "null", "return", "super", "switch", "this", "throw", "true", "try",
   "typeof", "var", "void", "while", "with", "yield", "let", "static", "implements", "interface",
   "package", "private", "protected", "public", "await", "async"]

/-- A name a call can be written with: a plain identifier that is not a reserved word. -/
def isCalleeName (callee : String) : Bool := isPlainKey callee && !reservedWords.contains callee

/-- The values the planner writes, with the shape each is written in. -/
inductive Written : PatchValue → Shape → Prop
  | string (s : String) : Written (.literal (.string s)) (.string s)
  | bool (b : Bool) : Written (.literal (.bool b)) (.bool b)
  | call (callee : String) (arguments : List Value) : isCalleeName callee = true →
      Written (.call callee arguments) (.call callee)
  /-- A call wrapped in an array, as the planner writes a new property in append mode. -/
  | wrapped (callee : String) (arguments : List Value) (style : ObjectStyle) :
      isCalleeName callee = true → style.Sane →
      Written (.raw ("[" ++ (PatchValue.call callee arguments).render style ++ "]"))
        (.array (.call callee))

/-- `x'` is `x` with one more member, last, of which `fits` holds; the members before it stay. -/
def Gains (s s' : Source) (fits : Node → Prop) (x x' : Node) : Prop :=
  x'.kind = x.kind ∧ x'.field = x.field ∧
    ∃ init m, x'.members = init ++ [m] ∧ List.Forall₂ (Node.Same s s') x.members init ∧ fits m

/-- `n'` stands in the role of `n`, and `fits` holds of it. -/
def Becomes (fits : Node → Prop) (n n' : Node) : Prop :=
  n'.field = n.field ∧ fits n'

/-- An import statement of the form `import { name } from ...`. -/
def ImportFits (s : Source) (name : String) (i : Node) : Prop :=
  i.kind = .importStatement ∧ ∃ clause ∈ i.namedChildren, clause.kind = .importClause ∧
    ∃ named ∈ clause.namedChildren, named.kind = .namedImports ∧
      ∃ specifier ∈ named.namedChildren, specifier.kind = .importSpecifier ∧
        specifier.child? .renamedAs = none ∧
        ∃ local_, specifier.child? .name = some local_ ∧ local_.text s = name

/-- The import statements among the children of a file's root. -/
def importStatements (root : Node) : List Node :=
  root.namedChildren.filter (·.kind == .importStatement)

/-- The text an editor holds after an edit. -/
def TextEdit.splice (src : Source) (edit : TextEdit) : String :=
  src.bytes 0 edit.start ++ edit.text ++ src.bytes edit.stop src.text.utf8ByteSize

/-- What the patches rely on of a script parser. `Script.parse` keeps them on the texts it is
given; for the grammar the patches were written against, each is how that grammar reads the
text the planner writes. -/
structure GrammarLaws (parse : ScriptParser) : Prop where
  /-- A parse holds the text it was given. -/
  source : ∀ {language text origin p}, parse language text origin = .ok p → p.src.text = text
  /-- Identifiers are leaves, declarators stand in declarations, and calls take argument lists. -/
  shaped : ∀ {language text origin p}, parse language text origin = .ok p → Lookup.WellShaped p.root
  /-- String literals open with `'` or `"`. -/
  string_quote : ∀ {language text origin p}, parse language text origin = .ok p →
    ∀ (a : List Nat) (n : Node), p.root.subtreeAt a = some n → n.kind = .string →
      (n.text p.src).front = '\'' ∨ (n.text p.src).front = '"'
  /-- A property written after the last member of an object literal, or into an empty one, is
  read as one more member, last, and nothing else of the file changes. -/
  insert_member : ∀ {language text origin p p' a x style key rest value shape},
    parse language text origin = .ok p → p.root.subtreeAt a = some x → x.kind = .object →
    ObjectStyle.Sane style → Written value shape →
    parse language ((insertion p.src x style key rest value).splice p.src) origin = .ok p' →
    ReplacedAt p.src p'.src
      (Gains p.src p'.src (PairFits p'.src style.quote key (shape.under rest))) a p.root p'.root
  /-- A value written over the value of a property is read as the new value, in the same role. -/
  replace_value : ∀ {language text origin p p' a j x v style value shape},
    parse language text origin = .ok p → p.root.subtreeAt a = some x → x.kind = .pair →
    x.childIdx? .value = some j → x.children[j]? = some v →
    ObjectStyle.Sane style → Written value shape →
    parse language ((TextEdit.replace v.start v.stop (value.render style)).splice p.src) origin =
      .ok p' →
    ReplacedAt p.src p'.src (Becomes (Fits p'.src style.quote shape)) (a ++ [j]) p.root p'.root
  /-- `key: value` written over a shorthand property is read as a pair in its place. -/
  replace_shorthand : ∀ {language text origin p p' a x style key value shape},
    parse language text origin = .ok p → p.root.subtreeAt a = some x →
    x.kind = .shorthandPropertyIdentifier → ObjectStyle.Sane style → Written value shape →
    parse language ((TextEdit.replace x.start x.stop
        (renderKey key style ++ ": " ++ value.render style)).splice p.src) origin = .ok p' →
    ReplacedAt p.src p'.src (Becomes (PairFits p'.src style.quote key shape)) a p.root p'.root
  /-- An element written after the last element of an array literal is read as one more
  element, last. -/
  append_element : ∀ {language text origin p p' a x last style value shape},
    parse language text origin = .ok p → p.root.subtreeAt a = some x → x.kind = .array →
    x.members.getLast? = some last → ObjectStyle.Sane style → Written value shape →
    parse language ((afterLastMember p.src x last style (value.render style)).splice p.src)
      origin = .ok p' →
    ReplacedAt p.src p'.src (Gains p.src p'.src (Fits p'.src style.quote shape)) a p.root p'.root
  /-- An array literal with no elements, written over with one element, is read as that
  element in an array. -/
  append_first : ∀ {language text origin p p' a x style value shape},
    parse language text origin = .ok p → p.root.subtreeAt a = some x → x.kind = .array →
    x.members = [] → ObjectStyle.Sane style → Written value shape →
    parse language ((TextEdit.replace x.start x.stop ("[" ++ value.render style ++ "]")).splice
      p.src) origin = .ok p' →
    ReplacedAt p.src p'.src (Gains p.src p'.src (Fits p'.src style.quote shape)) a p.root p'.root
  /-- An import written among the imports, or before the first statement, is read as one
  more import statement; the other statements and imports stay. -/
  add_import : ∀ {language text origin p p' name module edit},
    parse language text origin = .ok p → isPlainKey name = true →
    importEdit p name module = some edit →
    parse language (edit.splice p.src) origin = .ok p' →
    SameStatements p.src p'.src p.root p'.root ∧
      ∃ pre post i, importStatements p'.root = pre ++ i :: post ∧
        List.Forall₂ (Node.Same p.src p'.src) (importStatements p.root) (pre ++ post) ∧
        ImportFits p'.src name i
  /-- A JSON document, as configuration files write it, holds no export statement. -/
  json_exports_nothing : ∀ {language text origin p document},
    parse language text origin = .ok p → Json.Relaxed.read text = .ok (some document) →
    ∀ s ∈ p.root.children, s.kind ≠ .exportStatement

end Monorepo.Codemod
