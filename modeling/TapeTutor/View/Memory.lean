import TapeTutor.Text.Blank
import TapeTutor.Text.Bytes
import TapeTutor.Text.Columns
import TapeTutor.View.Basic

/-!
# Views of the tape

`Viewer.memory` draws a window of cells as a table with three rows (values, printable
characters, cell numbers) and a mark under the head.  `Viewer.heatMap` shows the first two
hundred cells as shaded blocks.

A column of the table is four characters and the rule behind them, five in all.  The line of
the mark and the frame are made by another measure, of six characters a cell: the former is
put together cell by cell, with blanks for every cell but one, and loses the blanks behind
the mark when it is painted.
-/

namespace TapeTutor.Viewer

open Text (alignRight repeated)

/-! ## The memory window -/

/-- The value of a cell; the tape goes on with zeros. -/
def cellAt (memory : Array UInt8) (i : Nat) : UInt8 := memory.getD i 0

/-- The width of a field of the table. -/
def fieldWidth : Nat := 4

/-- The width of a cell as the frame and the line of the mark take it, without its rule. -/
def cellWidth : Nat := 5

/-- A byte as a character of the table: a dot unless it is printable ASCII. -/
def printable (value : UInt8) : String :=
  if 32 ≤ value ∧ value ≤ 126 then String.singleton (Text.charOfByte value) else "."

/-- A row of the table, from the fields of its cells. -/
def tableRow (fields : List Span) : Line :=
  .plain "│" :: fields.flatMap fun field => [field, .plain "│"]

/-- The field of a cell's value. -/
def valueField (v : Viewer) (value : UInt8) : Span :=
  .styled (.colored (if value = 0 then v.palette.cellZero else v.palette.cellNonzero))
    (alignRight fieldWidth (toString value.toNat))

/-- The field of a cell's character. -/
def asciiField (v : Viewer) (value : UInt8) : Span :=
  .styled (.colored v.palette.ascii) (alignRight fieldWidth (printable value))

/-- The field of a cell's number. -/
def indexField (v : Viewer) (i : Nat) : Span :=
  .styled { Style.colored v.palette.index with dimmed := true }
    (alignRight fieldWidth (toString i))

/-- What stands under cell `i`: the mark if the head is on it, else blanks. -/
def markerField (v : Viewer) (pointer i : Nat) : Line :=
  if i = pointer then
    [.plain (repeated (cellWidth / 2) " "), .styled (.colored v.palette.pointer) "▲",
      .plain (repeated ((cellWidth + 1) / 2) " ")]
  else [.plain (repeated (cellWidth + 1) " ")]

/-- The line with the mark under the head, painted and without the blanks behind. -/
def markerLine (v : Viewer) (pointer start : Nat) : String :=
  let window := List.range' start v.visibleCells
  Text.trimEnd (Line.render v.color (.plain " " :: window.flatMap (v.markerField pointer)))

/-- A text in the colour of frames. -/
def framed (v : Viewer) (text : String) : Span :=
  .styled (.colored v.palette.border) text

/-- The table of `visibleCells` cells from `start` on. -/
def tableLines (v : Viewer) (memory : Array UInt8) (start : Nat) : List Line :=
  let window := List.range' start v.visibleCells
  let width := v.visibleCells * (cellWidth + 1)
  let rule : Line := [v.framed (repeated (width + 1) "─")]
  let divider : Line := [v.framed ("├" ++ repeated (width - 1) "─" ++ "┤")]
  [Theme.headingLine "Memory Visualization:",
    rule,
    tableRow (window.map fun i => v.valueField (cellAt memory i)),
    divider,
    tableRow (window.map fun i => v.asciiField (cellAt memory i)),
    divider,
    tableRow (window.map fun i => v.indexField i),
    rule]

/-- What is said below the window. -/
def summaryLines (v : Viewer) (memory : Array UInt8) (pointer : Nat) : List Line :=
  let nonZero := memory.countP (· ≠ 0)
  [[],
    [v.framed ("Non-zero cells: " ++ toString nonZero)],
    [v.framed ("Pointer position: " ++ toString pointer)]]

/-- The lines of the window of `visibleCells` cells from `start` on. -/
def memoryLines (v : Viewer) (memory : Array UInt8) (pointer start : Nat) : List Line :=
  v.tableLines memory start ++ Line.plain (v.markerLine pointer start) ::
    v.summaryLines memory pointer

/-- The window of `visibleCells` cells from `start` on, with the head on `pointer`. -/
def memory (v : Viewer) (memory : Array UInt8) (pointer start : Nat) : String :=
  v.display (v.memoryLines memory pointer start)

/-! ## The heat map -/

/-- The number of blocks in a row of the heat map. -/
def heatColumns : Nat := 20

/-- The largest number of rows of the heat map. -/
def heatRows : Nat := 10

/-- The block of a cell: zero, a control byte, a byte of ASCII, or a byte beyond. -/
def heatBlock (v : Viewer) (value : UInt8) : Span :=
  if value = 0 then .styled (.colored v.palette.cellZero) "░░░"
  else if value ≤ 31 then .styled (.colored v.palette.info) "▒▒▒"
  else if value ≤ 127 then .styled (.colored v.palette.success) "▓▓▓"
  else .styled (.colored v.palette.error) "███"

/-- Row `i` of the heat map. -/
def heatRow (v : Viewer) (shown : Array UInt8) (i : Nat) : Line :=
  let cells := shown.extract (heatColumns * i) (heatColumns * (i + 1))
  (cells.toList.map v.heatBlock).intersperse (.plain " ")

/-- The lines of the heat map. -/
def heatLines (v : Viewer) (memory : Array UInt8) : List Line :=
  let shown := memory.extract 0 (heatColumns * heatRows)
  let rows := (shown.size + heatColumns - 1) / heatColumns
  [Theme.headingLine "Memory Heat Map:",
    [v.framed "(Gray=0, Blue=Control, Green=ASCII, Red=Extended)"]] ++
    (List.range rows).map (v.heatRow shown)

/-- The leading cells as shaded blocks. -/
def heatMap (v : Viewer) (memory : Array UInt8) : String := v.display (v.heatLines memory)

end TapeTutor.Viewer
