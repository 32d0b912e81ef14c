import Monorepo.Config.Basic
import Monorepo.Toml.Document
import Monorepo.Decimal.Shortest
import Monorepo.Text.Quoted

/-! Reading the tool's settings from a TOML document. Each section and key is optional and
keeps its default when absent. Keys are read in sorted order, so of two bad values the one whose
key sorts first is reported. A key the tool does not know is skipped, but a number in it too large
to hold is still refused. A section may also be given as an array, whose items set the section's
settings in their declared order. A value of the wrong kind is refused with the place of that
value and a message naming what was found and what was expected. -/

namespace Monorepo.Config

open Monorepo.Toml

/-- How a refused integer is named: plainly when 64 bits hold it, signed or not, and with the
width it needs when only 128 bits do; none when no width holds it. -/
def integerText (i : Int) : Option String :=
  if -Int.pow 2 63 ≤ i ∧ i < Int.pow 2 64 then some s!"integer `{i}`"
  else if -Int.pow 2 127 ≤ i ∧ i < Int.pow 2 127 then some s!"integer `{i}` as i128"
  else if 0 ≤ i ∧ i < Int.pow 2 128 then some s!"integer `{i}` as u128"
  else none

/-- How a refused value other than an integer is named in an error. -/
def unexpectedText : Toml.Value → String
  | .string s => "string " ++ Text.quoted s
  | .integer i => (integerText i).getD s!"integer `{i}`"
  | .unreadableInteger => "integer"
  | .float f => "floating point `" ++ Decimal.positional f ++ "`"
  | .floatOverflow => "floating point `inf`"
  | .boolean b => s!"boolean `{b}`"
  | .datetime _ => "map"
  | .array _ => "sequence"
  | .table _ => "map"

/-- Refuses a value at its place: a number too large to hold, or a value of the wrong kind. -/
def invalidType {α : Type} (start stop : Nat) (v : Toml.Value) (expected : String) :
    Except Toml.Failure α :=
  match v with
  | .floatOverflow => .error ⟨"floating-point number overflowed", start, stop⟩
  | .unreadableInteger => .error ⟨"integer number overflowed", start, stop⟩
  | .integer i =>
    if (integerText i).isNone then .error ⟨"integer number overflowed", start, stop⟩
    else .error ⟨s!"invalid type: {unexpectedText v}, expected {expected}", start, stop⟩
  | _ => .error ⟨s!"invalid type: {unexpectedText v}, expected {expected}", start, stop⟩

def sortByKey (entries : Entries) : Entries :=
  entries.mergeSort fun a b => decide (a.1 ≤ b.1)

/-- The earlier in key order of two refusals found under keys. -/
def firstByKey : Option (String × Toml.Failure) → Option (String × Toml.Failure) →
    Option (String × Toml.Failure)
  | some a, some b => if b.1 < a.1 then some b else some a
  | some a, none => some a
  | none, b => b

mutual

/-- The refusal of a number too large to hold inside a value nobody reads, if there is one;
a table is looked through in key order. -/
def overflowIn (start stop : Nat) : Toml.Value → Option Toml.Failure
  | .floatOverflow => some ⟨"floating-point number overflowed", start, stop⟩
  | .unreadableInteger => some ⟨"integer number overflowed", start, stop⟩
  | .integer i => if (integerText i).isNone then some ⟨"integer number overflowed", start, stop⟩ else none
  | .array items => overflowAmongItems items
  | .table entries => (overflowAmongEntries entries).map (·.2)
  | _ => none

/-- The first such refusal among the items of an array. -/
def overflowAmongItems : List (Nat × Nat × Toml.Value) → Option Toml.Failure
  | [] => none
  | (s, e, v) :: rest =>
    match overflowIn s e v with
    | some f => some f
    | none => overflowAmongItems rest

/-- Among the entries of a table, the refusal under the key that sorts first, with that key. -/
def overflowAmongEntries : Entries → Option (String × Toml.Failure)
  | [] => none
  | (k, s, e, v) :: rest => firstByKey ((overflowIn s e v).map (k, ·)) (overflowAmongEntries rest)

end

/-- Looks through a value nobody reads, refusing any number in it too large to hold. -/
def skipValue (start stop : Nat) (v : Toml.Value) : Except Toml.Failure Unit :=
  match overflowIn start stop v with
  | some f => .error f
  | none => .ok ()

def readString (start stop : Nat) : Toml.Value → Except Toml.Failure String
  | .string s => .ok s
  | v => invalidType start stop v "a string"

def readBool (start stop : Nat) : Toml.Value → Except Toml.Failure Bool
  | .boolean b => .ok b
  | v => invalidType start stop v "a boolean"

def readStrings (start stop : Nat) : Toml.Value → Except Toml.Failure (List String)
  | .array items => items.mapM fun (s, e, v) => readString s e v
  | v => invalidType start stop v "a sequence"

/-- One setting of a section: its key, and how its value at a place sets it. -/
structure Field (α : Type) where
  key : String
  apply : α → Nat → Nat → Toml.Value → Except Toml.Failure α

/-- Reads the entries of a table into a section: known keys set their settings in sorted order,
unknown ones are only looked through. -/
def readEntries {α : Type} (fields : List (Field α)) (init : α) (entries : Entries) :
    Except Toml.Failure α :=
  (sortByKey entries).foldlM (fun acc (k, s, e, v) =>
    match fields.find? (·.key == k) with
    | some f => f.apply acc s e v
    | none => do skipValue s e v; pure acc) init

/-- Reads a section named `name`: a table, or an array whose items set the settings in their
declared order, any further items left unread. -/
def readSection {α : Type} (name : String) (fields : List (Field α)) (init : α) (start stop : Nat) :
    Toml.Value → Except Toml.Failure α
  | .table entries => readEntries fields init entries
  | .array items => (fields.zip items).foldlM (fun acc (f, s, e, v) => f.apply acc s e v) init
  | v => invalidType start stop v ("struct " ++ name)

def generalFields : List (Field General) :=
  [⟨"log_level", fun _ s e v => return { logLevel := ← readString s e v }⟩]

/-- The settings of the workspace section, in their declared order. -/
def workspaceFields : List (Field WorkspaceSettings) :=
  [⟨"manifest_file", fun w s e v => return { w with manifestFile := ← readString s e v }⟩,
   ⟨"workspace_file", fun w s e v => return { w with workspaceFile := ← readString s e v }⟩,
   ⟨"tsconfig_candidates", fun w s e v =>
      return { w with tsconfigCandidates := ← readStrings s e v }⟩,
   ⟨"ignored_dirs", fun w s e v => return { w with ignoredDirs := ← readStrings s e v }⟩,
   ⟨"source_extensions", fun w s e v => return { w with sourceExtensions := ← readStrings s e v }⟩,
   ⟨"output_dir", fun w s e v => return { w with outputDir := ← readString s e v }⟩,
   ⟨"root_project_entries", fun w s e v =>
      return { w with rootProjectEntries := ← readStrings s e v }⟩]

/-- The settings of the layout section, in their declared order. -/
def layoutFields : List (Field Layout) :=
  [⟨"apps_dir", fun l s e v => return { l with appsDir := ← readString s e v }⟩,
   ⟨"libs_dir", fun l s e v => return { l with libsDir := ← readString s e v }⟩,
   ⟨"packages_dir", fun l s e v => return { l with packagesDir := ← readString s e v }⟩]

/-- The settings of the commit section, in their declared order. -/
def commitFields : List (Field CommitSettings) :=
  [⟨"atomic_writes", fun c s e v => return { c with atomicWrites := ← readBool s e v }⟩,
   ⟨"prune_empty_dirs", fun c s e v => return { c with pruneEmptyDirs := ← readBool s e v }⟩]

/-- The sections of the settings file. -/
def configFields : List (Field ToolConfig) :=
  [⟨"general", fun c s e v =>
      return { c with general := ← readSection "GeneralConfig" generalFields {} s e v }⟩,
   ⟨"workspace", fun c s e v =>
      return { c with workspace := ← readSection "WorkspaceSettings" workspaceFields {} s e v }⟩,
   ⟨"layout", fun c s e v =>
      return { c with layout := ← readSection "LayoutConfig" layoutFields {} s e v }⟩,
   ⟨"commit", fun c s e v =>
      return { c with commit := ← readSection "CommitConfig" commitFields {} s e v }⟩]

def readConfig (entries : Entries) : Except Toml.Failure ToolConfig :=
  readEntries configFields {} entries

/-- Reads settings from TOML text; an error carries the TOML report. -/
def ToolConfig.ofToml (text : String) : Outcome ToolConfig :=
  match Toml.read text >>= readConfig with
  | .ok c => .ok c
  | .error f => .error (.config ("Failed to parse config file: " ++ f.report text))

/-- Reads and checks settings from TOML text, with overrides from the environment. -/
def ToolConfig.load (text : String) (lookup : String → Option String) : Outcome ToolConfig := do
  let c := (← ToolConfig.ofToml text).withEnvironment lookup
  c.validate
  return c

end Monorepo.Config
