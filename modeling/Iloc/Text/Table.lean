namespace Iloc.Text

/-!
# Boxed tables

A table is drawn with box characters: a header row between two borders, the
data rows, and a border at the bottom.  Cells are aligned left with one blank on
each side, and a column is as wide as its longest cell, the header included.

Rows and borders are made by the same framing of one segment per column.  As
the segments of a column all have one length, the bars of the rows stand below
the junctions of the borders.
-/

/-- A header and rows of cells, one cell per column. -/
structure Table where
  header : List String
  rows : List (List String)
  deriving Repr, DecidableEq

namespace Table

/-- The number of characters in the longest cell of each column. -/
def columnWidths (table : Table) : List Nat :=
  table.rows.foldl
    (fun widths row => widths.zipWith max (row.map String.length))
    (table.header.map String.length)

/-- Put column segments between characters that separate and enclose them. -/
def frame
    (left middle right : Char)
    (segments : List (List Char)) :
    List Char :=
  left :: ([middle].intercalate segments ++ [right])

/-- A horizontal border.  Its segments cover the blanks around the cells. -/
def border
    (left middle right : Char)
    (widths : List Nat) :
    List Char :=
  frame left middle right
    (widths.map fun width => List.replicate (width + 2) '─')

/-- A cell, filled up to the width of its column, with a blank on each side. -/
def paddedCell
    (cell : String)
    (width : Nat) :
    List Char :=
  ' ' :: (cell.toList.rightpad width ' ' ++ [' '])

/-- One row of cells. -/
def rowLine
    (widths : List Nat)
    (cells : List String) :
    List Char :=
  frame '│' '│' '│' (cells.zipWith paddedCell widths)

/-- The lines of a table.  Without rows there is no border at the bottom. -/
def lines (table : Table) : List (List Char) :=
  let widths := table.columnWidths
  let bottom :=
    if table.rows.isEmpty then
      []
    else
      [border '└' '┴' '┘' widths]
  [ border '┌' '┬' '┐' widths,
    rowLine widths table.header,
    border '├' '┼' '┤' widths ] ++
    table.rows.map (rowLine widths) ++
    bottom

/-- The drawing of a table, with no line end after its last line. -/
def text (table : Table) : String :=
  String.ofList (['\n'].intercalate table.lines)

end Table

end Iloc.Text
