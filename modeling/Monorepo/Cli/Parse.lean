import Monorepo.Cli.Spec
import Monorepo.Cli.Similar

/-! Reading a command line against a grammar. Arguments are read left to right. A word naming a
subcommand hands the rest of the line to that subcommand; `help` followed by subcommand names
prints the help page they lead to. `--` makes every later word a positional value. A long option
takes its value after `=` or as the next word; a short option after its letter, after `=`, or as
the next word; several short switches may share one dash. Any other word is the next positional
value.

A value is checked when the option is complete: when the next argument starts, or the line
ends. After the line is read the command is checked as a whole: a command with subcommands needs
one, arguments that exclude each other may not both be given, and required values must be.
A refused line is reported with what was wrong, suggestions for what may have been meant, and a
usage line. -/

namespace Monorepo.Cli

/-- The values given for one command's arguments, in the order the arguments first came. -/
abbrev Given := List (String × List String)

/-- One command of the command line with what was given for it. -/
structure Level where
  command : Command
  given : Given

/-- What is wrong with a command line. -/
inductive Problem where
  /-- An argument no option of the command has; the similar option, and other tips. -/
  | unknownArgument (arg : String) (similar : Option String) (tips : List String)
  /-- A switch given a value. -/
  | unexpectedValue (value arg : String)
  /-- A value the option does not accept; empty when no value was given. -/
  | invalidValue (value arg : String) (choices : List String) (similar : Option String)
  | usedTwice (arg : String)
  | conflict (arg : String) (others : List String)
  | missingRequired (args : List String)
  | missingSubcommand (name : String) (choices : List String)
  | unrecognizedSubcommand (name : String) (similar : List String)
  deriving DecidableEq, Repr

namespace Problem

/-- The first line or lines of the report. -/
def message : Problem → String
  | .unknownArgument a _ _ => "unexpected argument '" ++ a ++ "' found"
  | .unexpectedValue v a => "unexpected value '" ++ v ++ "' for '" ++ a ++ "' found; no more were expected"
  | .invalidValue v a choices _ =>
    let head := if v.isEmpty then "a value is required for '" ++ a ++ "' but none was supplied"
      else "invalid value '" ++ v ++ "' for '" ++ a ++ "'"
    if choices.isEmpty then head else head ++ "\n  [possible values: " ++ ", ".intercalate choices ++ "]"
  | .usedTwice a => "the argument '" ++ a ++ "' cannot be used multiple times"
  | .conflict a [o] => "the argument '" ++ a ++ "' cannot be used with '" ++ o ++ "'"
  | .conflict a os => "the argument '" ++ a ++ "' cannot be used with" ++ String.join (os.map ("\n  " ++ ·))
  | .missingRequired as =>
    "the following required arguments were not provided:" ++ String.join (as.map ("\n  " ++ ·))
  | .missingSubcommand n cs =>
    "'" ++ n ++ "' requires a subcommand but one was not provided\n  [subcommands: " ++
      ", ".intercalate cs ++ "]"
  | .unrecognizedSubcommand n _ => "unrecognized subcommand '" ++ n ++ "'"

def quotedList (names : List String) : String := ", ".intercalate (names.map fun n => "'" ++ n ++ "'")

/-- The suggestion of a similar name, when there is one. -/
def suggestion : Problem → Option String
  | .unknownArgument _ (some s) _ => some ("a similar argument exists: '" ++ s ++ "'")
  | .invalidValue _ _ _ (some s) => some ("a similar value exists: '" ++ s ++ "'")
  | .unrecognizedSubcommand _ [s] => some ("a similar subcommand exists: '" ++ s ++ "'")
  | .unrecognizedSubcommand _ (s :: ss) => some ("some similar subcommands exist: " ++ quotedList (s :: ss))
  | _ => none

def tips : Problem → List String
  | .unknownArgument _ _ ts => ts
  | _ => []

/-- The suggestion and tips, each on a line of its own after a blank line. -/
def advice (p : Problem) : String :=
  let first := match p.suggestion with
    | some s => "\n\n  tip: " ++ s
    | none => ""
  let lead := if p.suggestion.isNone && !p.tips.isEmpty then "\n" else ""
  first ++ lead ++ String.join (p.tips.map ("\n  tip: " ++ ·))

end Problem

/-- A refused command line: what was wrong, and the usage line to show with it. -/
structure Refusal where
  problem : Problem
  usage : Option String := none
  deriving DecidableEq, Repr

/-- The report of a refused command line. -/
def Refusal.render (r : Refusal) : String :=
  let usage := match r.usage with
    | some u => "\n\nUsage: " ++ u
    | none => ""
  "error: " ++ r.problem.message ++ r.problem.advice ++ usage ++
    "\n\nFor more information, try '--help'.\n"

/-- Why reading a command line gave no command to run. -/
inductive Stop where
  /-- Help was asked for: the page to print. -/
  | help (page : String)
  /-- The version was asked for. -/
  | version (text : String)
  /-- Nothing was given where a subcommand is needed: the page to print as an error. -/
  | helpOnError (page : String)
  | refused (r : Refusal)
  deriving DecidableEq, Repr

/-- How far a command's arguments have been read. -/
structure Reading where
  given : Given := []
  /-- An argument whose values are still being gathered. -/
  pending : Option (Arg × List String) := none
  /-- Whether the last word was an option still waiting for its value. -/
  awaiting : Bool := false
  /-- How many positional arguments are filled. -/
  position : Nat := 0
  /-- Whether `--` came, after which every word is a positional value. -/
  trailing : Bool := false

def Given.ids (g : Given) : List String := g.map (·.1)

/-- Adds values to an argument's entry, or a new entry at the end. -/
def Given.add (g : Given) (id : String) (values : List String) : Given :=
  if g.any (·.1 == id) then g.map fun (k, vs) => if k == id then (k, vs ++ values) else (k, vs)
  else g ++ [(id, values)]

/-- Records a complete occurrence of an argument: a value must be there and be accepted, and a
single-valued option or a switch may come only once. -/
def record (c : Command) (g : Given) (a : Arg) (values : List String) : Except Stop Given :=
  let refuse (p : Problem) (usage : Option String) : Except Stop Given := .error (.refused ⟨p, usage⟩)
  match a.takes, values with
  | .flag, _ =>
    if g.any (·.1 == a.id) then refuse (.usedTwice a.display) (some c.helpUsage)
    else .ok (g.add a.id [])
  | .single _, [] | .repeated _, [] | .position _, [] =>
    refuse (.invalidValue "" a.display a.choices none) none
  | .single _, v :: _ =>
    if g.any (·.1 == a.id) then refuse (.usedTwice a.display) (some c.helpUsage)
    else if a.nonEmpty && v.isEmpty then refuse (.invalidValue "" a.display [] none) none
    else if !a.choices.isEmpty && !a.choices.contains v then
      refuse (.invalidValue v a.display a.choices (mostSimilar v a.choices)) none
    else .ok (g.add a.id [v])
  | _, vs => .ok (g.add a.id vs)

namespace Reading

/-- Completes the argument being gathered. -/
def resolve (c : Command) (r : Reading) : Except Stop Reading :=
  match r.pending with
  | none => .ok { r with awaiting := false }
  | some (a, vs) => do
    let given ← record c r.given a vs
    return { r with given, pending := none, awaiting := false }

/-- Completes the argument being gathered when it is sound, and drops it otherwise; used
before reporting another problem. -/
def settle (c : Command) (r : Reading) : Reading :=
  match r.resolve c with
  | .ok r => r
  | .error _ => { r with pending := none, awaiting := false }

/-- One occurrence of an argument with all its values: help and version stop the reading. -/
def react (c : Command) (r : Reading) (a : Arg) (values : List String) : Except Stop Reading := do
  let r ← r.resolve c
  match a.effect with
  | .showHelp => throw (.help c.helpPage)
  | .showVersion => throw (.version (c.name ++ " " ++ (c.version.getD "") ++ "\n"))
  | .record => return { r with given := ← record c r.given a values }

def expect (c : Command) (r : Reading) (a : Arg) : Except Stop Reading := do
  let r ← r.resolve c
  return { r with pending := some (a, []), awaiting := true }

end Reading

/-- Prints the help page that subcommand names lead to. -/
def helpFor (c : Command) : List String → Stop
  | [] => .help c.helpPage
  | n :: ns =>
    match c.subcommand? n with
    | some s => helpFor s ns
    | none => .refused ⟨.unrecognizedSubcommand n [], some c.helpUsage⟩

/-- The tip for passing a word that looks like an option as a value. -/
def asValueTip (word : String) : String := "to pass '" ++ word ++ "' as a value, use '-- " ++ word ++ "'"

/-- The report for a long option the command does not have: the most similar option of the
command, else one of a subcommand named later on the line. A similar option counts as given in
the usage line. -/
def unknownLong (c : Command) (r : Reading) (name : String) (rest : List String) : Stop :=
  let r := r.settle c
  match mostSimilar name c.longNames with
  | some s =>
    let used := match c.findLong? s with
      | some a => r.given.ids ++ (if r.given.ids.contains a.id then [] else [a.id])
      | none => r.given.ids
    .refused ⟨.unknownArgument ("--" ++ name) (some ("--" ++ s)) [], some (c.givenUsage used)⟩
  | none =>
    let inSubcommands := c.subcommands.filterMap fun s =>
      match mostSimilar name s.longNames, rest.idxOf? s.name with
      | some cand, some i => some (i, "'" ++ s.name ++ " --" ++ cand ++ "' exists")
      | _, _ => none
    let best := inSubcommands.foldl (fun acc x => match acc with
      | some y => if x.1 < y.1 then some x else some y
      | none => some x) none
    let tips := match best with
      | some (_, t) => [t]
      | none => if !r.trailing && !c.positionals.isEmpty then [asValueTip ("--" ++ name)] else []
    .refused ⟨.unknownArgument ("--" ++ name) none tips, some (c.givenUsage r.given.ids)⟩

/-- The report for a word that is neither a subcommand nor a free positional place. After `--`
a subcommand's name is refused with a tip to drop the `--`. -/
def stray (c : Command) (trailing : Bool) (word : String) : Stop :=
  let candidates := similar word c.subcommandNames
  if trailing && (c.subcommand? word).isSome then
    .refused ⟨.unknownArgument word none
      ["subcommand '" ++ word ++ "' exists; to use it, remove the '--' before it"], some c.helpUsage⟩
  else if !candidates.isEmpty then .refused ⟨.unrecognizedSubcommand word candidates, some c.helpUsage⟩
  else if !c.subcommands.isEmpty then .refused ⟨.unrecognizedSubcommand word [], some c.helpUsage⟩
  else .refused ⟨.unknownArgument word none [], some c.helpUsage⟩

/-- Reads a cluster of short options after one dash. -/
def shortCluster (c : Command) : Reading → List Char → Except Stop Reading
  | r, [] => .ok r
  | r, ch :: more =>
    match c.findShort? ch with
    | none =>
      let r := r.settle c
      let tips := if !r.trailing && !c.positionals.isEmpty then [asValueTip ("-" ++ ch.toString)] else []
      .error (.refused ⟨.unknownArgument ("-" ++ ch.toString) none tips, some c.helpUsage⟩)
    | some a =>
      if a.takes == .flag then do shortCluster c (← r.react c a []) more
      else if more.isEmpty then r.expect c a
      else
        let value := match more with
          | '=' :: v => String.ofList v
          | v => String.ofList v
        r.react c a [value]

/-- Reads a positional value. -/
def positional (c : Command) (r : Reading) (word : String) : Except Stop Reading :=
  match c.positionals[r.position]? with
  | none => .error (stray c r.trailing word)
  | some p =>
    match p.takes, r.pending with
    | .rest _, some (q, vs) =>
      if q.id == p.id then .ok { r with pending := some (q, vs ++ [word]) }
      else do
        let r ← r.resolve c
        return { r with pending := some (p, [word]) }
    | .rest _, none => .ok { r with pending := some (p, [word]) }
    | _, _ => do
      let r ← r.resolve c
      return { r with pending := some (p, [word]), position := r.position + 1 }

/-- Reads a command's words up to the end of the line or a subcommand's name; gives the
subcommand with the words after it. -/
def scan (c : Command) : Reading → List String → Except Stop (Reading × Option (Command × List String))
  | r, [] => .ok (r, none)
  | r, word :: rest =>
    if r.trailing then do scan c (← positional c r word) rest
    else
      match c.subcommand? word with
      | some s =>
        if word == "help" then .error (helpFor c rest) else .ok (r, some (s, rest))
      | none =>
        if word == "--" then scan c { r with trailing := true } rest
        else if word.startsWith "--" then
          let body := (word.drop 2).toString
          let (name, attached) := match body.splitOn "=" with
            | [n] => (n, none)
            | n :: vs => (n, some ("=".intercalate vs))
            | [] => (body, none)
          match c.findLong? name with
          | none => .error (unknownLong c r name rest)
          | some a =>
            match a.takes, attached with
            | .flag, some v =>
              let r := r.settle c
              let used := (r.given.ids.filter fun id => !c.required.contains id) ++ [a.id]
              let grouped := r.given.ids.any fun id =>
                c.group.contains id && ((c.find? id).map (!·.isPositional)).getD false
              .error (.refused ⟨.unexpectedValue v a.display, some (c.givenUsage used grouped)⟩)
            | .flag, none => do scan c (← r.react c a []) rest
            | _, some v => do scan c (← r.react c a [v]) rest
            | _, none => do scan c (← r.expect c a) rest
        else if word.startsWith "-" && word.length > 1 then do
          scan c (← shortCluster c r (word.drop 1).toString.toList) rest
        else if r.awaiting then
          match r.pending with
          | some (a, vs) => scan c { r with pending := some (a, vs ++ [word]), awaiting := false } rest
          | none => do scan c (← positional c r word) rest
        else do scan c (← positional c r word) rest

/-- Checks a command once its words are read. -/
def validate (c : Command) (r : Reading) (hasSubcommand : Bool) : Except Stop Unit := do
  if !hasSubcommand && !c.subcommands.isEmpty then
    if r.given.isEmpty then throw (.helpOnError c.helpPage)
    throw (.refused ⟨.missingSubcommand c.path c.subcommandNames, some c.helpUsage⟩)
  let ids := r.given.ids
  for id in ids do
    if let some a := c.find? id then
      let others := (ids.filter fun o => o != id &&
        (a.conflicts.contains o || ((c.find? o).map (·.conflicts.contains id)).getD false)).eraseDups
      if !others.isEmpty then
        let shown := others.filterMap fun o => (c.find? o).map (·.display)
        let used := ids.filter fun o => !others.contains o
        throw (.refused ⟨.conflict a.display shown, some (c.givenUsage used)⟩)
  let missing := c.required.filter fun id => !ids.contains id
  if !missing.isEmpty then
    let shown := missing.filterMap fun id => (c.find? id).map (·.display)
    throw (.refused ⟨.missingRequired shown, some (c.givenUsage (ids ++ missing))⟩)

/-- Reads a command line: the commands it names, each with what was given for it. -/
def parseLine : Nat → Command → List String → Except Stop (List Level)
  | 0, c, _ => .ok [⟨c, []⟩]
  | fuel + 1, c, words => do
    let (r, sub) ← scan c {} words
    match sub with
    | some (s, rest) =>
      let below ← parseLine fuel s rest
      let r ← r.resolve c
      validate c r true
      return ⟨c, r.given⟩ :: below
    | none =>
      let r ← r.resolve c
      validate c r false
      return [⟨c, r.given⟩]

def parse (c : Command) (words : List String) : Except Stop (List Level) :=
  parseLine (words.length + 1) c words

end Monorepo.Cli
