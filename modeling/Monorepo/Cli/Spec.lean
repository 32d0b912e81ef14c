/-! The grammar of a command line: a command has switches, options with values and positional
values, and may have subcommands, each a command of its own. Messages name an option by its long
form with its value, `--root <ROOT>`, and a positional value by its placeholder, `<PROJECT>`.
A command's help page lists its subcommands, its positional values and its options, each column
aligned to the widest entry of its own section. -/

namespace Monorepo.Cli

/-- How an argument takes its values. -/
inductive Takes where
  /-- A switch: given or not. -/
  | flag
  /-- An option with one value; giving it twice is refused. -/
  | single (valueName : String)
  /-- An option with one value each time; it may be given many times. -/
  | repeated (valueName : String)
  /-- A required value given by its position. -/
  | position (valueName : String)
  /-- Any number of values given by position, none of them required. -/
  | rest (valueName : String)
  deriving DecidableEq, Repr, Inhabited

/-- What giving an argument does besides recording it. -/
inductive Effect where
  | record
  /-- Stops and prints the command's help page. -/
  | showHelp
  /-- Stops and prints the program's version. -/
  | showVersion
  deriving DecidableEq, Repr, Inhabited

/-- One argument of a command. -/
structure Arg where
  id : String
  long : Option String := none
  short : Option Char := none
  takes : Takes := .flag
  help : String := ""
  default : Option String := none
  /-- The values it accepts; empty when any value will do. -/
  choices : List String := []
  /-- The arguments it may not be given with. -/
  conflicts : List String := []
  effect : Effect := .record
  /-- Whether subcommands accept it too. -/
  global : Bool := false
  /-- Whether an empty value is refused, as it is for a path. -/
  nonEmpty : Bool := false
  deriving Repr, Inhabited

namespace Arg

/-- Whether the argument is given by position. -/
def isPositional (a : Arg) : Bool :=
  match a.takes with
  | .position _ | .rest _ => true
  | _ => false

/-- Whether the argument is required: the positional values that must be given. -/
def isRequired (a : Arg) : Bool :=
  match a.takes with
  | .position _ => true
  | _ => false

/-- The placeholder of the argument's value, `<NAME>`, or `[NAME]...` for optional values. -/
def placeholder (a : Arg) : String :=
  match a.takes with
  | .flag => ""
  | .single n | .repeated n | .position n => "<" ++ n ++ ">"
  | .rest n => "[" ++ n ++ "]..."

/-- The name of the argument's value, `ROOT` for `--root <ROOT>`. -/
def valueName (a : Arg) : String :=
  match a.takes with
  | .flag => a.id
  | .single n | .repeated n | .position n | .rest n => n

/-- The argument as messages name it: its long form, with the placeholder of a value. -/
def display (a : Arg) : String :=
  if a.isPositional then a.placeholder
  else
    let name := match a.long, a.short with
      | some l, _ => "--" ++ l
      | none, some c => "-" ++ c.toString
      | none, none => a.id
    match a.takes with
    | .flag => name
    | _ => name ++ " " ++ a.placeholder

/-- The notes after an argument's help: its default and the values it accepts. -/
def notes (a : Arg) : List String :=
  let default := match a.default with
    | some d => ["[default: " ++ d ++ "]"]
    | none => []
  let choices := if a.choices.isEmpty then [] else
    ["[possible values: " ++ ", ".intercalate a.choices ++ "]"]
  default ++ choices

def helpText (a : Arg) : String :=
  " ".intercalate ((if a.help.isEmpty then [] else [a.help]) ++ a.notes)

end Arg

/-- A command: its arguments in the order its help lists them, and its subcommands. -/
structure Command where
  name : String
  /-- The words a usage line starts with: the program and the subcommands that lead here. -/
  path : String
  about : String := ""
  version : Option String := none
  args : List Arg := []
  /-- The arguments declared together as the command's own; a usage line shows them as one
  group once one of them is given by name. -/
  group : List String := []
  subcommands : List Command := []
  deriving Repr, Inhabited

namespace Command

def positionals (c : Command) : List Arg := c.args.filter (·.isPositional)

def options (c : Command) : List Arg := c.args.filter fun a => !a.isPositional

def find? (c : Command) (id : String) : Option Arg := c.args.find? (·.id == id)

def findLong? (c : Command) (name : String) : Option Arg := c.args.find? (·.long == some name)

def findShort? (c : Command) (ch : Char) : Option Arg := c.args.find? (·.short == some ch)

def subcommand? (c : Command) (name : String) : Option Command :=
  c.subcommands.find? (·.name == name)

def subcommandNames (c : Command) : List String := c.subcommands.map (·.name)

def longNames (c : Command) : List String := c.args.filterMap (·.long)

def required (c : Command) : List String := (c.args.filter (·.isRequired)).map (·.id)

/-- Whether the usage line shows `[OPTIONS]`: some option other than help and version. -/
def showsOptions (c : Command) : Bool :=
  c.options.any fun a => a.effect == .record

/-- The usage line of the help page: options, positional values and the subcommand slot. -/
def helpUsage (c : Command) : String :=
  let options := if c.showsOptions then [" [OPTIONS]"] else []
  let positions := c.positionals.map (" " ++ ·.placeholder)
  let slot := if c.subcommands.isEmpty then [] else [" <COMMAND>"]
  c.path ++ String.join (options ++ positions ++ slot)

/-- The group of a command's own arguments as a usage line shows it: positional values by the
name of their value, options by their long form, all between angle brackets. -/
def groupText (c : Command) : String :=
  let members := c.args.filter fun a => c.group.contains a.id
  "<" ++ "|".intercalate (members.map fun a => if a.isPositional then a.valueName else a.display) ++ ">"

/-- The usage line of an error: the arguments that were given, then the required ones. Options
come first in the order given, then the command's own group when it is `grouped`, standing for
its members, then positional values in their order. -/
def givenUsage (c : Command) (used : List String) (grouped : Bool := false) : String :=
  let shown (id : String) : Bool := !(grouped && c.group.contains id)
  let wanted := (c.required ++ used).filter shown
  let options := (c.options.filter fun a => wanted.contains a.id).map fun a => (a.id, a.display)
  let ordered := (wanted.filterMap fun id => (options.find? (·.1 == id)).map (·.2)).eraseDups
  let group := if grouped && !c.group.isEmpty then [c.groupText] else []
  let positions := (c.positionals.filter fun a => wanted.contains a.id).map (·.display)
  let slot := if c.subcommands.isEmpty then [] else ["<COMMAND>"]
  c.path ++ String.join ((ordered ++ group ++ positions ++ slot).map (" " ++ ·))

def spaces (n : Nat) : String := String.ofList (List.replicate n ' ')

def commandLines (c : Command) : List String :=
  let width := c.subcommands.foldl (fun w s => max w s.name.length) 2
  c.subcommands.map fun s => "  " ++ s.name ++ spaces (width + 2 - s.name.length) ++ s.about

def positionLines (c : Command) : List String :=
  let width := c.positionals.foldl (fun w a => max w a.display.length) 2
  c.positionals.map fun a => "  " ++ a.display ++ spaces (width + 2 - a.display.length) ++ a.helpText

/-- The option lines of a help page: the short form or four spaces, then the long form. -/
def optionLines (c : Command) : List String :=
  let width := c.options.foldl (fun w a => max w (a.display.length + 4)) 2
  c.options.map fun a =>
    let short := match a.short with
      | some ch => "-" ++ ch.toString ++ ", "
      | none => "    "
    "  " ++ short ++ a.display ++ spaces (width + 2 - (a.display.length + 4)) ++ a.helpText

/-- The help page: what the command does, its usage, and its sections. -/
def helpPage (c : Command) : String :=
  let block (title : String) (lines : List String) : List String :=
    if lines.isEmpty then [] else [title ++ ":\n" ++ "\n".intercalate lines]
  let sections := block "Commands" c.commandLines ++ block "Arguments" c.positionLines ++
    block "Options" c.optionLines
  let about := if c.about.isEmpty then [] else [c.about]
  "\n\n".intercalate (about ++ ["Usage: " ++ c.helpUsage] ++ sections) ++ "\n"

end Command

end Monorepo.Cli
