import ReportExchange.Text.Split
import ReportExchange.Text.Width

namespace ReportExchange.Grid

open Text

-- A cell of several lines makes its row as high as it is.
def cellLines (cell : String) : List String :=
  (pieces '\n' cell.toList).map String.ofList

def cellWidth (cell : String) : Nat :=
  (cellLines cell).foldl (fun w line => max w (width line)) 0

-- The width of every column: that of its widest cell.
def columnWidths (header : List String) (rows : List (List String)) : List Nat :=
  rows.foldl (fun ws row => List.zipWith (fun w cell => max w (cellWidth cell)) ws row)
    (header.map cellWidth)

def padded (columns : Nat) (s : String) : String :=
  s ++ String.ofList (List.replicate (columns - width s) ' ')

def fill (c : Char) (n : Nat) : String :=
  String.ofList (List.replicate n c)

-- A rule runs over the cells and the blank on each of their sides.
def rule (left joint right : String) (stroke : Char) (widths : List Nat) : String :=
  left ++ joint.intercalate (widths.map fun w => fill stroke (w + 2)) ++ right

def rowLine (widths : List Nat) (cells : List String) : String :=
  "│" ++ "┆".intercalate ((widths.zip cells).map fun (w, s) => " " ++ padded w s ++ " ") ++ "│"

def rowLines (widths : List Nat) (row : List String) : List String :=
  let cells := row.map cellLines
  let height := cells.foldl (fun h lines => max h lines.length) 1
  (List.range height).map fun i => rowLine widths (cells.map fun lines => (lines[i]?).getD "")

def render (header : List String) (rows : List (List String)) : String :=
  let widths := columnWidths header rows
  "\n".intercalate (
    [rule "┌" "┬" "┐" '─' widths] ++
    rowLines widths header ++
    [rule "╞" "╪" "╡" '═' widths] ++
    rows.flatMap (rowLines widths) ++
    [rule "└" "┴" "┘" '─' widths])

end ReportExchange.Grid
