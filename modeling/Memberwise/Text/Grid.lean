/-!
# Tables of text

A table drawn with box characters: a heavy rule below the header, a light one between rows. A column is as wide
as its widest cell, and a cell has one blank on either side.
-/

namespace Memberwise.Text.Grid

/-- Text filled up with blanks on the right. -/
def padRight (width : Nat) (s : String) : String := s ++ String.ofList (List.replicate (width - s.length) ' ')

/-- The widths of the columns of some rows, each row being as long as the first. -/
def widths : List (List String) → List Nat
  | [] => []
  | [row] => row.map String.length
  | row :: rest => List.zipWith max (row.map String.length) (widths rest)

/-- A horizontal rule: its left end, its line, its crossings and its right end. -/
def rule (left line crossing right : String) (ws : List Nat) : String :=
  left ++ crossing.intercalate (ws.map fun w => String.join (List.replicate (w + 2) line)) ++ right

/-- A row of cells. -/
def cells (ws : List Nat) (row : List String) : String :=
  "│ " ++ " ┆ ".intercalate (List.zipWith padRight ws row) ++ " │"

/-- The lines of a table. -/
def lines (header : List String) (rows : List (List String)) : List String :=
  let ws := widths (header :: rows)
  let between := rule "├" "╌" "┼" "┤" ws
  [rule "┌" "─" "┬" "┐" ws, cells ws header, rule "╞" "═" "╪" "╡" ws] ++
    (rows.map (cells ws)).intersperse between ++ [rule "└" "─" "┴" "┘" ws]

end Memberwise.Text.Grid
