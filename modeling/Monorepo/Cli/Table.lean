import Monorepo.Text.Width

/-! Tables drawn with box characters: a header row set off by a double rule, body rows divided by
dashed rules, and columns divided by dashed bars. Every column is as wide as its widest line,
with one space of padding on each side; a cell holding several lines makes its row as tall as
the most lines. Widths count terminal columns, as `Text.textWidth` measures them. -/

namespace Monorepo.Cli

open Monorepo.Text

/-- A table: its header and its rows of cells. -/
structure Table where
  header : List String
  rows : List (List String)
  deriving DecidableEq, Repr

namespace Table

def cellLines (cell : String) : List String := cell.splitOn "\n"

def columns (t : Table) : Nat := (t.rows.map List.length).foldl max t.header.length

/-- The width of each column: its widest line. -/
def widths (t : Table) : List Nat :=
  (List.range t.columns).map fun i =>
    ((t.header :: t.rows).flatMap fun row => cellLines (row.getD i "")).foldl
      (fun w line => max w (textWidth line)) 0

/-- A rule across the table: its left end, the line for each column, its joints and right end. -/
def rule (widths : List Nat) (left line joint right : Char) : String :=
  String.ofList [left] ++
    String.intercalate (String.ofList [joint])
      (widths.map fun w => String.ofList (List.replicate (w + 2) line)) ++ String.ofList [right]

/-- The lines of one row, each cell padded to its column. -/
def rowLines (widths : List Nat) (row : List String) : List String :=
  let cells := (List.range widths.length).map fun i => cellLines (row.getD i "")
  let height := cells.foldl (fun h ls => max h ls.length) 1
  (List.range height).map fun k =>
    let parts := (widths.zip cells).map fun (w, ls) =>
      let line := ls.getD k ""
      " " ++ line ++ String.ofList (List.replicate (w - textWidth line) ' ') ++ " "
    "│" ++ "┆".intercalate parts ++ "│"

/-- The table drawn, its lines joined by line breaks. -/
def render (t : Table) : String :=
  let ws := t.widths
  let body := t.rows.map (rowLines ws)
  let between := rule ws '├' '╌' '┼' '┤'
  let rows := (body.intersperse [between]).flatten
  "\n".intercalate ([rule ws '┌' '─' '┬' '┐'] ++ rowLines ws t.header ++
    [rule ws '╞' '═' '╪' '╡'] ++ rows ++ [rule ws '└' '─' '┴' '┘'])

end Table

end Monorepo.Cli
