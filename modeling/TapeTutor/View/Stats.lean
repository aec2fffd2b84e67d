import Std.Data.TreeMap
import TapeTutor.Machine
import TapeTutor.Text.Columns
import TapeTutor.View.Basic

/-!
# Statistics of a run

How often each instruction was executed, and which cells were visited most.  A cell is
visited by every instruction executed while the head is on it.

Both are counted by one pass over the records that fills a map: from the characters of the
instructions, and from the numbers of the cells.  Instructions are listed in the order of
the map.  Cells are ordered by the number of visits, the busiest first, and among equals by
their number; the first five are listed.
-/

namespace TapeTutor

namespace Tally

/-- One more of a key. -/
def add {α : Type} [Ord α] (t : Std.TreeMap α Nat) (x : α) : Std.TreeMap α Nat :=
  t.insert x (t.getD x 0 + 1)

/-- How often each key occurs in a list. -/
def ofList {α : Type} [Ord α] (xs : List α) : Std.TreeMap α Nat := xs.foldl add ∅

/-- Whether the first entry comes before the second: it has the larger count, or the same
count and not the larger number. -/
def before (a b : Nat × Nat) : Bool :=
  a.2 > b.2 || (a.2 == b.2 && a.1 ≤ b.1)

/-- The numbers with their counts, the most frequent first. -/
def ranked (t : Std.TreeMap Nat Nat) : List (Nat × Nat) := t.toList.mergeSort before

end Tally

namespace Viewer

open Text (alignRight repeated)

/-- The number of cells listed. -/
def busiestCells : Nat := 5

/-- A bar of one block for every ten, at most fifty blocks long. -/
def bar (count : Nat) : String := repeated (min (count / 10) 50) "█"

/-- A line with a label, a count and its bar. -/
def countLine (label : String) (count : Nat) (color : Color) : Line :=
  [.plain ("  " ++ label ++ ": " ++ alignRight 6 (toString count) ++ " "),
    .styled (.colored color) (bar count)]

/-- The lines for the instructions that occur, in the order of their characters. -/
def usageLines (v : Viewer) (history : Array Record) : List Line :=
  let commands := Tally.ofList (history.toList.map fun r => r.instruction.toChar)
  commands.toList.map fun (command, count) =>
    countLine (String.singleton command) count v.palette.success

/-- The lines of the statistics. -/
def statsLines (v : Viewer) (history : Array Record) : List Line :=
  let cells := Tally.ofList (history.toList.map Record.pointer)
  let busiest := (Tally.ranked cells).take busiestCells
  [Theme.headingLine "Execution Statistics:", Line.plain "Command usage:"] ++
    v.usageLines history ++
    [Line.plain "Most accessed cells:"] ++
    busiest.map (fun (cell, count) =>
      countLine ("Cell " ++ alignRight 3 (toString cell)) count v.palette.info) ++
    [Line.plain ("Total steps: " ++ toString history.size),
      Line.plain ("Unique cells accessed: " ++ toString cells.size)]

/-- Instruction counts and the busiest cells of a history. -/
def stats (v : Viewer) (history : Array Record) : String := v.display (v.statsLines history)

end Viewer

end TapeTutor
