import TapeTutor.Machine
import TapeTutor.Text.Bytes
import TapeTutor.Text.Columns
import TapeTutor.Text.Quoted

/-!
# The trace table

A table with a row for each record of a history: the step, the state before it, and what the
instruction did.  A record holds the state *before* its instruction, so what it did is worked
out from that state and the jumps of the program.
-/

namespace TapeTutor

namespace Trace

open Text (alignLeft)

/-- The head of the table. -/
def head : String :=
  "STEP | IP  | PTR | CELL | INSTR | ACTION\n" ++
    "-----+-----+-----+------+-------+------------------------------------------------\n"

/-- What the instruction of a record did, in words. -/
def action (p : Program) (r : Record) : String :=
  let cell := "cell[" ++ toString r.pointer ++ "]"
  let value := toString r.value.toNat
  let target := toString ((p.target? r.ip).getD r.ip)
  match r.instruction with
  | .right => "Moved pointer head to index " ++ toString (r.pointer + 1)
  | .left => "Moved pointer head to index " ++ toString (r.pointer - 1)
  | .increment =>
      "Increment " ++ cell ++ " from " ++ value ++ " to " ++ toString (r.value + 1).toNat
  | .decrement =>
      "Decrement " ++ cell ++ " from " ++ value ++ " to " ++ toString (r.value - 1).toNat
  | .output =>
      "Output byte " ++ value ++ " (" ++ Text.quotedChar (Text.charOfByte r.value) ++ ")"
  | .input => "Read input byte into " ++ cell
  | .loopOpen =>
      if r.value = 0 then "Cell is 0; jump forward to matching ']' at IP " ++ target
      else "Cell != 0; enter loop"
  | .loopClose =>
      if r.value = 0 then "Cell is 0; exit loop"
      else "Cell != 0; jump back to matching '[' at IP " ++ target

/-- The row of a record. -/
def row (p : Program) (r : Record) (step : Nat) : String :=
  alignLeft 4 (toString step) ++ " | " ++ alignLeft 3 (toString r.ip) ++ " | " ++
    alignLeft 3 (toString r.pointer) ++ " | " ++ alignLeft 4 (toString r.value.toNat) ++
    " |  " ++ r.instruction.text ++ "    | " ++ action p r ++ "\n"

/-- The table of a history. -/
def table (p : Program) (history : Array Record) : String :=
  head ++ String.join (history.toList.zipIdx.map fun (r, step) => row p r step)

end Trace

end TapeTutor
