import Monorepo.Script.Parse

/-! The layout conventions of an object literal, read off the literal itself so that inserted
properties look like the ones around them: the quote for new strings, the indentation of the
object's line and of its properties, whether properties sit on their own lines and end with a
comma, whether keys are quoted, and the file's line break. -/

namespace Monorepo.Codemod

open Monorepo.Script

def defaultIndentUnit : String := "  "

/-- How the properties of one object literal are laid out. -/
structure ObjectStyle where
  quote : Char
  objectIndent : String
  propertyIndent : String
  multiline : Bool
  trailingComma : Bool
  quotedKeys : Bool
  newline : String
  deriving Repr, DecidableEq

namespace ObjectStyle

/-- The indentation one level adds: the property indent past the object indent. -/
def indentUnit (s : ObjectStyle) : String :=
  if s.propertyIndent.startsWith s.objectIndent && s.propertyIndent.length > s.objectIndent.length then
    String.ofList (s.propertyIndent.toList.drop s.objectIndent.length)
  else defaultIndentUnit

/-- The style of an object literal placed as a property value of this one. -/
def nested (s : ObjectStyle) : ObjectStyle :=
  { s with objectIndent := s.propertyIndent, propertyIndent := s.propertyIndent ++ s.indentUnit }

end ObjectStyle

/-- The comma after `member` among the children of `parent`, skipping comments. -/
def commaAfter (parent member : Node) : Option Node :=
  match (parent.after member).find? (!·.isComment) with
  | some n => if n.kind == .token "," then some n else none
  | none => none

/-- Whether characters hold a carriage return followed by a line feed. -/
def holdsCrlf : List Char → Bool
  | '\r' :: '\n' :: _ => true
  | _ :: rest => holdsCrlf rest
  | [] => false

def detectNewline (text : String) : String :=
  bif holdsCrlf text.toList then "\r\n" else "\n"

/-- The quote of the first string literal of a file, `'` when it has none. -/
def detectQuote (p : Parsed) : Char :=
  match p.root.firstString with
  | some n => (n.text p.src).front
  | none => '\''

/-- Reads the style of an object (or array) literal of a parsed file. -/
def ObjectStyle.detect (p : Parsed) (object : Node) (quote : Char) : ObjectStyle :=
  let src := p.src
  let objectIndent := src.lineIndent object.start
  let members := object.members
  let row := src.row object.start
  let propertyIndent :=
    match members.find? (src.row ·.start != row) with
    | some m =>
      let indent := src.lineIndent m.start
      if indent.length > objectIndent.length && indent.startsWith objectIndent then indent
      else objectIndent ++ defaultIndentUnit
    | none => objectIndent ++ defaultIndentUnit
  let trailingComma :=
    match members.getLast? with
    | some last => (commaAfter object last).isSome
    | none => false
  let quotedKeys := !members.isEmpty && members.all fun m =>
    m.kind == .pair && ((m.child? .key).map (·.kind == .string)).getD false
  { quote, objectIndent, propertyIndent
    multiline := (object.text src).contains '\n'
    trailingComma, quotedKeys
    newline := detectNewline src.text }

end Monorepo.Codemod
