/-! Dates and times in TOML settings: a full date, a time of day, or both with an optional
offset. The text is cut into runs of digits and single marks, then read field by field. A field
of the wrong width, a month outside 01 to 12, a day past the end of its month (February has 29
days in a leap year), an hour past 23, a minute past 59, a second past 60 or an offset past
23:59 is refused with the part that was wrong and what was expected there. -/

namespace Monorepo.Toml.Datetime

/-- A piece of date or time text. -/
inductive Piece where
  | digits (text : String)
  | dash
  | colon
  | dot
  | separator
  | zulu
  | plus
  | other
  deriving DecidableEq, Repr

/-- The piece a character other than a digit stands for. -/
def markOf (c : Char) : Piece :=
  if c == '-' then .dash
  else if c == ':' then .colon
  else if c == '.' then .dot
  else if c == 'T' || c == 't' || c == ' ' then .separator
  else if c == 'Z' || c == 'z' then .zulu
  else if c == '+' then .plus
  else .other

/-- Cuts text into pieces: each run of digits is one piece, every other character another. -/
def pieces : List Char → List Piece
  | [] => []
  | c :: cs =>
    match c.isDigit, pieces cs with
    | true, .digits d :: rest => .digits (c.toString ++ d) :: rest
    | true, rest => .digits c.toString :: rest
    | false, rest => markOf c :: rest

/-- A refusal: the part that was wrong (none for the whole value) and what was expected. -/
structure Problem where
  part : Option String
  expected : Option String
  deriving DecidableEq, Repr

/-- The message of a refusal. -/
def Problem.message (p : Problem) : String :=
  "invalid " ++ p.part.getD "datetime" ++
    match p.expected with
    | some e => ", expected " ++ e
    | none => ""

/-- Readers of pieces that may be refused. -/
abbrev Reading := StateT (List Piece) (Except Problem)

def refuse {α : Type} (part : Option String) (expected : String) : Reading α :=
  throw ⟨part, some expected⟩

/-- The next piece, if any. -/
def nextPiece : Reading (Option Piece) := do
  match ← get with
  | [] => return none
  | p :: rest => set rest; return some p

def peekPiece : Reading (Option Piece) := do
  return (← get).head?

/-- Takes a run of digits, or refuses with `expected` for `part`. -/
def takeDigits (part : Option String) (expected : String) : Reading String := do
  match ← nextPiece with
  | some (.digits d) => return d
  | _ => refuse part expected

/-- Takes one mark, or refuses with `expected` for `part`. -/
def takeMark (mark : Piece) (part : Option String) (expected : String) : Reading Unit := do
  if (← nextPiece) == some mark then return () else refuse part expected

def valueOf (d : String) : Nat := d.toList.foldl (fun n c => n * 10 + (c.toNat - 48)) 0

def isLeapYear (year : Nat) : Bool := year % 4 == 0 && (year % 100 != 0 || year % 400 == 0)

/-- The last day of a month, and how that limit is stated. -/
def monthLength (year month : Nat) : Nat × String :=
  if month == 2 then
    if isLeapYear year then (29, "day between 01 and 29") else (28, "day between 01 and 28")
  else if month == 4 || month == 6 || month == 9 || month == 11 then (30, "day between 01 and 30")
  else (31, "day between 01 and 31")

/-- Reads the date after its year and the dash that follows it. -/
def date (year : String) : Reading Unit := do
  let part := some "date"
  let month ← takeDigits part "month"
  takeMark .dash part "`-` (MM-DD)"
  let day ← takeDigits part "day"
  if year.length != 4 then refuse part "a four-digit year (YYYY)"
  if month.length != 2 then refuse part "a two-digit month (MM)"
  if day.length != 2 then refuse part "a two-digit day (DD)"
  let m := valueOf month
  if m < 1 || m > 12 then refuse part "month between 01 and 12"
  let (last, limit) := monthLength (valueOf year) m
  let d := valueOf day
  if d < 1 || d > last then refuse part limit

/-- Reads a time of day: hours and minutes, then optional seconds and their fraction. -/
def time : Reading Unit := do
  let part := some "time"
  let hour ← takeDigits part "hour"
  takeMark .colon part "`:` (HH:MM)"
  let minute ← takeDigits part "minute"
  let second ←
    if (← peekPiece) == some .colon then do
      let _ ← nextPiece
      pure (some (← takeDigits part "second"))
    else pure none
  if second.isSome && (← peekPiece) == some .dot then
    let _ ← nextPiece
    let _ ← takeDigits part "nanosecond"
  if hour.length != 2 then refuse part "a two-digit hour (HH)"
  if minute.length != 2 then refuse part "a two-digit minute (MM)"
  if let some s := second then
    if s.length != 2 then refuse part "a two-digit second (SS)"
  if valueOf hour > 23 then refuse part "hour between 00 and 23"
  if valueOf minute > 59 then refuse part "minute between 00 and 59"
  if (second.map valueOf).getD 0 > 60 then refuse part "second between 00 and 60"

/-- Reads an offset after a date and time: `Z`, or a sign with hours and minutes. -/
def offset : Reading Unit := do
  let part := some "offset"
  match ← nextPiece with
  | none => return ()
  | some .zulu => return ()
  | some .plus | some .dash =>
    let hours ← takeDigits part "hour"
    takeMark .colon part "`:` (HH:MM)"
    let minutes ← takeDigits part "minute"
    if hours.length != 2 then refuse part "a two-digit hour (HH)"
    if minutes.length != 2 then refuse part "a two-digit minute (MM)"
    if valueOf hours > 23 then refuse part "hours between 00 and 23"
    if valueOf minutes > 59 then refuse part "minutes between 00 and 59"
  | some _ => refuse part "`Z`, +OFFSET, -OFFSET"

/-- Reads a whole date, time or date and time. -/
def whole : Reading Unit := do
  let first ← takeDigits none "year or hour"
  match ← nextPiece with
  | some .dash =>
    date first
    match ← nextPiece with
    | some .separator =>
      time
      offset
    | some _ => refuse (some "date-time") "`T` between date and time"
    | none => return ()
  | some .colon =>
    set (.digits first :: .colon :: (← get))
    time
  | _ => refuse none "`-` (YYYY-MM) or `:` (HH:MM)"
  if !(← get).isEmpty then throw ⟨none, none⟩

/-- Why a date or time text is refused, or none when it is well formed. -/
def problem (text : String) : Option Problem :=
  match whole.run (pieces text.toList) with
  | .ok _ => none
  | .error p => some p

example : (problem "2000-02-30").map Problem.message =
    some "invalid date, expected day between 01 and 29" := by decide +kernel

example : (problem "24:00:00").map Problem.message =
    some "invalid time, expected hour between 00 and 23" := by decide +kernel

example : problem "1979-05-27T07:32:00-08:00" = none := by decide +kernel

end Monorepo.Toml.Datetime
