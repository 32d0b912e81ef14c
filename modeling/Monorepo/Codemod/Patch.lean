import Monorepo.Codemod.Locator
import Monorepo.Codemod.PatchValue
import Monorepo.Codemod.Imports

/-! Idempotent patching of configuration objects. A patch is a list of property paths with the
value each should hold. Every entry is planned against the current syntax tree and becomes at
most one text edit, so comments, blank lines and property order elsewhere stay as they were. A
path that already holds its value needs no edit, so running a patch twice changes nothing the
second time. Imports are added after the entries, and only when some entry was neither skipped
nor blocked. -/

namespace Monorepo.Codemod

open Monorepo.Script Monorepo.Json

/-- What to do when a path already holds a different value. -/
inductive PatchMode where
  /-- Recurse into objects key by key; replace anything else. -/
  | merge
  /-- Leave existing values alone. -/
  | skip
  /-- Replace the existing value as a whole. -/
  | replace
  /-- Add the value to the array at the path unless the array holds it. -/
  | append
  deriving DecidableEq, Repr

/-- Reads a mode by name. -/
def PatchMode.ofName (name : String) : Outcome PatchMode :=
  if name == "merge" then .ok .merge
  else if name == "skip" then .ok .skip
  else if name == "replace" then .ok .replace
  else if name == "append" then .ok .append
  else .error (.invalidInput ("unknown patch mode '" ++ name ++
    "' (expected merge, skip, replace or append)"))

/-- What applying one entry did. -/
inductive PatchOutcome where
  | unchanged
  | inserted
  | updated
  | skipped
  | unmergeable
  deriving DecidableEq, Repr

namespace PatchOutcome

/-- The name of an outcome. -/
def name : PatchOutcome → String
  | .unchanged => "unchanged"
  | .inserted => "inserted"
  | .updated => "updated"
  | .skipped => "skipped"
  | .unmergeable => "unmergeable"

def isChange : PatchOutcome → Bool
  | .inserted | .updated => true
  | _ => false

/-- The outcome of a merge from the outcomes of its keys: a change wins, then a blocked path,
then a skip. -/
def combine (os : List PatchOutcome) : PatchOutcome :=
  if os.any isChange then .updated
  else if os.contains .unmergeable then .unmergeable
  else if os.contains .skipped then .skipped
  else .unchanged

end PatchOutcome

/-- One property path and the value it should hold. -/
structure PatchEntry where
  path : List String
  value : PatchValue
  mode : PatchMode

def PatchEntry.dottedPath (e : PatchEntry) : String := ".".intercalate e.path

/-- A named import that patched values rely on. -/
structure NamedImport where
  name : String
  module : String

/-- The assignments for one object literal, and the imports they need. -/
structure ConfigPatch where
  entries : List PatchEntry
  imports : List NamedImport

/-- The outcome of one entry or import, under its dotted path or `import <name>`. -/
structure EntryOutcome where
  path : String
  outcome : PatchOutcome

/-- What one entry needs in the current tree. -/
inductive Step where
  | done (outcome : PatchOutcome)
  | edit (e : TextEdit) (outcome : PatchOutcome)
  | mergeKeys (children : Members)

/-- A property of an object literal: its member, and its value unless it is shorthand. -/
structure Property where
  node : Node
  value : Option Node

/-- The object a locator finds in the editor's text. -/
def locate (e : Editor) (l : Locator) : Outcome Node :=
  match l.find e.parsed with
  | some n => .ok n
  | none => .error (.targetObjectNotFound e.origin l.describe)

/-- The last property named `key`; later duplicates win, as they do when the code runs. -/
def findProperty (src : Source) (object : Node) (key : String) : Option Property :=
  (object.members.filterMap fun m =>
    if m.kind == .pair then
      match (m.child? .key).bind (propertyKey src) with
      | some name => if name == key then some ⟨m, m.child? .value⟩ else none
      | none => none
    else if m.kind == .shorthandPropertyIdentifier then
      if m.text src == key then some ⟨m, none⟩ else none
    else none).getLast?

/-- The edit adding `member` after `last`, the final member of `container`. On one line it
goes after the comma or with one; otherwise on a line of its own after the last member's line,
keeping end-of-line comments where they are. -/
def afterLastMember (src : Source) (container last : Node) (style : ObjectStyle) (member : String) :
    TextEdit :=
  let terminator := if style.trailingComma then "," else ""
  let comma := commaAfter container last
  if !style.multiline then
    match comma with
    | some c => .insert c.stop (" " ++ member ++ ",")
    | none => .insert last.stop (", " ++ member)
  else
    let anchorNode := comma.getD last
    let anchor := trailingCommentEnd src container anchorNode
    let text := (if comma.isNone then "," else "") ++ src.bytes last.stop anchor ++ style.newline ++
      style.propertyIndent ++ member ++ terminator
    .replace last.stop anchor text

/-- The value placed at the missing keys `rest` below a new property of a `style` object. -/
def renderPath (value : PatchValue) : List String → ObjectStyle → String
  | [], style => value.render style
  | key :: tail, style =>
    let nested := style.nested
    renderObject [(renderKey key nested, renderPath value tail nested)] nested

/-- The edit adding `key`, and the missing rest of the path, to `object`. -/
def insertion (src : Source) (object : Node) (style : ObjectStyle) (key : String)
    (rest : List String) (value : PatchValue) : TextEdit :=
  let members := object.members
  let style := if members.isEmpty then { style with multiline := true } else style
  let property := renderKey key style ++ ": " ++ renderPath value rest style
  let terminator := if style.trailingComma then "," else ""
  match members.getLast? with
  | some last => afterLastMember src object last style property
  | none =>
    let inner := src.bytes (object.start + 1) (object.stop - 1)
    if (Text.trimBlank inner).isEmpty then
      .replace object.start object.stop
        (renderObject [(renderKey key style, renderPath value rest style)] style)
    else
      .insert (object.start + 1) (style.newline ++ style.propertyIndent ++ property ++ terminator)

/-- Adds `value` as the last element of `array` unless an element already is it. -/
def appendStep (p : Parsed) (array : Node) (quote : Char) (value : PatchValue) : Step :=
  if array.kind != .array then .done .unmergeable
  else
    let elements := array.members
    if elements.any (value.sameEntry p.src) then .done .unchanged
    else
      let style := ObjectStyle.detect p array quote
      let element := value.render style
      match elements.getLast? with
      | some last => .edit (afterLastMember p.src array last style element) .updated
      | none => .edit (.replace array.start array.stop ("[" ++ element ++ "]")) .updated

/-- The step for the last key of a path, which names an existing property. -/
def leafStep (p : Parsed) (property : Property) (style : ObjectStyle) (key : String)
    (value : PatchValue) (mode : PatchMode) : Step :=
  match property.value with
  | none =>
    match mode with
    | .skip => .done .skipped
    | .append => .done .unmergeable
    | _ =>
      let text := renderKey key style ++ ": " ++ value.render style
      .edit (.replace property.node.start property.node.stop text) .updated
  | some existing =>
    if mode == .append then appendStep p existing style.quote value
    else if value.holdsAt p.src existing then .done .unchanged
    else
      match mode, value.asObject? with
      | .skip, _ => .done .skipped
      | .merge, some children =>
        if existing.kind == .object then .mergeKeys children
        else .edit (.replace existing.start existing.stop (value.render style)) .updated
      | _, _ => .edit (.replace existing.start existing.stop (value.render style)) .updated

/-- Decides the single edit, if any, that `path = value` needs in the current tree. -/
def plan (e : Editor) (l : Locator) (path : List String) (value : PatchValue) (mode : PatchMode) :
    Outcome Step := do
  let p := e.parsed
  let quote := detectQuote p
  let root ← locate e l
  walk p quote root path
where
  walk (p : Parsed) (quote : Char) (object : Node) : List String → Outcome Step
    | [] => .error (.invalidInput "empty property path")
    | key :: rest =>
      let style := ObjectStyle.detect p object quote
      match findProperty p.src object key with
      | none =>
        let edit :=
          match mode with
          | .append =>
            let leafStyle := rest.foldl (fun s _ => s.nested) style
            insertion p.src object style key rest (.raw ("[" ++ value.render leafStyle ++ "]"))
          | _ => insertion p.src object style key rest value
        .ok (.edit edit .inserted)
      | some property =>
        if rest.isEmpty then .ok (leafStep p property style key value mode)
        else
          match property.value with
          | some nested => if nested.kind == .object then walk p quote nested rest else .ok (.done .unmergeable)
          | none => .ok (.done .unmergeable)

/-- Applies one entry: its edit, or the entries of its keys one after the other when an object
is merged into an object. `fuel` bounds the nesting of merged objects. -/
def applyEntry : Nat → Editor → Locator → List String → PatchValue → PatchMode →
    Outcome (Editor × PatchOutcome)
  | 0, e, _, _, _, _ => .ok (e, .unchanged)
  | fuel + 1, e, l, path, value, mode => do
    match ← plan e l path value mode with
    | .done o => return (e, o)
    | .edit ed o => return (← e.apply ed, o)
    | .mergeKeys children =>
      let mut current := e
      let mut outcomes : List PatchOutcome := []
      for (k, child) in children do
        let (next, o) ← applyEntry fuel current l (path ++ [k]) (.literal child) mode
        current := next
        outcomes := outcomes ++ [o]
      return (current, PatchOutcome.combine outcomes)

def PatchValue.depth : PatchValue → Nat
  | .literal v => v.depth + 1
  | _ => 1

/-- Makes `name` imported from `module` unless something binds it already. -/
def ensureNamedImport (e : Editor) (name module : String) : Outcome (Editor × PatchOutcome) :=
  match importEdit e.parsed name module with
  | none => .ok (e, .unchanged)
  | some edit => do return (← e.apply edit, .inserted)

/-- Applies a patch to the object `l` finds in a source text; gives the new text and the
outcome of every entry and import. -/
def patchSource (text : String) (language : Language) (origin : String) (l : Locator)
    (patch : ConfigPatch) : Outcome (String × List EntryOutcome) := do
  let mut editor ← Editor.load text language origin
  let _ ← locate editor l
  let mut outcomes : List EntryOutcome := []
  for entry in patch.entries do
    if entry.path.any (·.isEmpty) then
      throw (.invalidInput ("invalid property path '" ++ entry.dottedPath ++ "'"))
    let (next, o) ← applyEntry (entry.value.depth + 1) editor l entry.path entry.value entry.mode
    editor := next
    outcomes := outcomes ++ [⟨entry.dottedPath, o⟩]
  let applied := patch.entries.isEmpty ||
    outcomes.any fun o => o.outcome != .skipped && o.outcome != .unmergeable
  if applied then
    for imp in patch.imports do
      let (next, o) ← ensureNamedImport editor imp.name imp.module
      editor := next
      outcomes := outcomes ++ [⟨"import " ++ imp.name, o⟩]
  return (editor.text, outcomes)

end Monorepo.Codemod
