/-
  Attribution.Terminal.Table — tables drawn with lines.

  A cell may have several lines; a row is as high as its highest cell, and a column
  as wide as its widest line, measured in columns of the terminal. One blank stands
  on either side of a cell. A double line is drawn below the header and a dashed one
  between rows.
-/
import Attribution.Text.Width

namespace Attribution

inductive Alignment where
  | left
  | right
  deriving DecidableEq

/-- A table whose rows have as many cells as there are columns. The alignments are
    those of the rows; the header stands on the left. -/
structure Table where
  header : List Text
  alignments : List Alignment
  rows : List (List Text)

namespace Table

def cellLines (cell : Text) : List Text := Text.splitOn ['\n'] cell

def cellWidth (cell : Text) : Nat := ((cellLines cell).map Text.width).foldl max 0

def columnWidths (t : Table) : List Nat :=
  t.rows.foldl (fun ws row => List.zipWith max ws (row.map cellWidth)) (t.header.map cellWidth)

/-- A line of a cell, filled up to the width of its column, with a blank on either
    side. -/
def fit (a : Alignment) (w : Nat) (line : Text) : Text :=
  let fill := List.replicate (w - Text.width line) ' '
  match a with
  | .left => ' ' :: line ++ fill ++ [' ']
  | .right => ' ' :: fill ++ line ++ [' ']

def rowLines (alignments : List Alignment) (widths : List Nat) (row : List Text) : List Text :=
  let cells := row.map cellLines
  let height := (cells.map List.length).foldl max 0
  (List.range height).map fun i =>
    let fitted := List.zipWith (fun (a, w) c => fit a w (c.getD i [])) (alignments.zip widths) cells
    '│' :: List.intercalate ['┆'] fitted ++ ['│']

def rule (left fill cross right : Char) (widths : List Nat) : Text :=
  left :: List.intercalate [cross] (widths.map fun w => List.replicate (w + 2) fill) ++ [right]

def between (line : Text) : List (List Text) → List Text
  | [] => []
  | [r] => r
  | r :: rest => r ++ line :: between line rest

def lines (t : Table) : List Text :=
  let ws := t.columnWidths
  let head := rowLines (t.header.map fun _ => .left) ws t.header
  let rows := t.rows.map (rowLines t.alignments ws)
  rule '┌' '─' '┬' '┐' ws ::
    (head ++ rule '╞' '═' '╪' '╡' ws ::
      (between (rule '├' '╌' '┼' '┤' ws) rows ++ [rule '└' '─' '┴' '┘' ws]))

def render (t : Table) : Text := List.intercalate ['\n'] t.lines

end Table

end Attribution
