import FrameFeed.Text.Pad
/-!
# Tables in text

A header and rows of cells, drawn with a frame. Each column is as wide as its longest cell and a
blank on either side; cells stand at the left. A double rule follows the header and a dashed rule
stands between rows.
-/

namespace FrameFeed

namespace Table

/-- The width of each column: that of its longest cell. -/
def widths (header : List String) (rows : List (List String)) : List Nat :=
  rows.foldl (fun ws row => List.zipWith (fun w cell => max w cell.length) ws row)
    (header.map String.length)

/-- A rule across the table. -/
def rule (left : String) (fill : Char) (cross right : String) (ws : List Nat) : String :=
  left ++ String.intercalate cross (ws.map fun w => String.ofList (List.replicate (w + 2) fill)) ++
    right

/-- A row of cells. -/
def line (ws : List Nat) (cells : List String) : String :=
  "│ " ++ String.intercalate " ┆ " (List.zipWith padRight ws cells) ++ " │"

/-- The lines of a table. -/
def lines (header : List String) (rows : List (List String)) : List String :=
  let ws := widths header rows
  rule "┌" '─' "┬" "┐" ws ::
  line ws header ::
  rule "╞" '═' "╪" "╡" ws ::
  (rows.map (line ws)).intersperse (rule "├" '╌' "┼" "┤" ws) ++
  [rule "└" '─' "┴" "┘" ws]

/-- A table as text. -/
def render (header : List String) (rows : List (List String)) : String :=
  String.intercalate "\n" (lines header rows)

end Table

end FrameFeed
