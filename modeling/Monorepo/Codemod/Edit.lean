import Monorepo.Script.Parse

/-! Editing a source file by byte ranges while keeping its syntax tree in step. Every edit is
followed by a fresh parse, and an edit that leaves the file unparseable is refused with the
parse error, so the text held is always one that parses. -/

namespace Monorepo.Codemod

open Monorepo.Script

/-- The replacement of one byte range of a source. -/
structure TextEdit where
  start : Nat
  stop : Nat
  text : String
  deriving Repr, DecidableEq

def TextEdit.insert (at_ : Nat) (text : String) : TextEdit := ⟨at_, at_, text⟩

def TextEdit.replace (start stop : Nat) (text : String) : TextEdit := ⟨start, stop, text⟩

/-- A source text with its grammar, its name for messages and its current syntax tree. -/
structure Editor where
  language : Language
  origin : String
  parsed : Parsed

namespace Editor

def load (text : String) (language : Language) (origin : String) : Outcome Editor := do
  return ⟨language, origin, ← parse language text origin⟩

def text (e : Editor) : String := e.parsed.src.text

def src (e : Editor) : Source := e.parsed.src

def root (e : Editor) : Node := e.parsed.root

/-- Applies one edit and parses the result; a range outside the text or inside a character is
refused, and so is a result that does not parse. -/
def apply (e : Editor) (edit : TextEdit) : Outcome Editor := do
  let src := e.src
  let size := e.text.utf8ByteSize
  let boundary (b : Nat) : Bool := src.offsets.contains b
  let outside := edit.start > edit.stop || edit.stop > size || !boundary edit.start ||
    !boundary edit.stop
  bif outside then
    throw (.invalidInput ("edit range " ++ toString edit.start ++ ".." ++ toString edit.stop ++
      " is outside " ++ e.origin))
  else
    let updated := src.bytes 0 edit.start ++ edit.text ++ src.bytes edit.stop size
    return { e with parsed := ← parse e.language updated e.origin }

end Editor

end Monorepo.Codemod
