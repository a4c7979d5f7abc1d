import Lineage.Text.Width

/-!
Plain text tables: a header, a rule below it, and rows. Columns are as wide as their widest cell, a
cell with line breaks takes several lines, and there is no border around the table.
-/

namespace Lineage.Table

/-- The lines of a cell. -/
def lines (cell : String) : List (List Char) :=
  cell.toList.splitOn '\n'

def cellWidth (cell : String) : Nat :=
  ((lines cell).map Width.columns).foldl max 0

/-- The width of each of `count` columns. -/
def columnWidths (count : Nat) (rows : List (List String)) : List Nat :=
  (List.range count).map fun column =>
    (rows.map fun row => cellWidth (row[column]?.getD "")).foldl max 0

/-- A line of a cell with a blank on each side, filled up to the width of its column. -/
def padded (width : Nat) (line : List Char) : List Char :=
  ' ' :: line ++ List.replicate (width - Width.columns line) ' ' ++ [' ']

/-- One line of a row. -/
def rowLine (widths : List Nat) (row : List String) (line : Nat) : List Char :=
  List.intercalate ['|'] ((widths.zip row).map fun (width, cell) =>
    padded width ((lines cell)[line]?.getD []))

/-- The lines of a row: as many as its highest cell has. -/
def rowLines (widths : List Nat) (row : List String) : List (List Char) :=
  (List.range ((row.map fun cell => (lines cell).length).foldl max 0)).map (rowLine widths row)

/-- The rule below the header. -/
def rule (widths : List Nat) : List Char :=
  List.intercalate ['+'] (widths.map fun width => List.replicate (width + 2) '-')

/-- The text of a table, without a line break at the end. -/
def render (header : List String) (rows : List (List String)) : String :=
  let widths := columnWidths header.length (header :: rows)
  String.ofList (List.intercalate ['\n']
    (rowLines widths header ++ [rule widths] ++ rows.flatMap (rowLines widths)))

end Lineage.Table
