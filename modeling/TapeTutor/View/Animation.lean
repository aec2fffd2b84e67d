import TapeTutor.Interpreter
import TapeTutor.View.Code
import TapeTutor.View.Memory

/-!
# Animation

An animation steps a program to its end and draws a frame after every instruction.  Before
each step it asks two questions, in this order: has somebody asked it to stop, and has the
interpreter used up its instructions?  The first ends it as interrupted, the second as
failed.

The interpreter is taken as it is.  An interrupted animation leaves its step session
running, so that the next one goes on where it stopped.

When the stop comes is given by the number of polls that still find it absent: `some 0` is a
stop that is there from the beginning, `none` one that never comes.
-/

namespace TapeTutor

/-- How an animation ended. -/
inductive AnimationEnd where
  /-- The program is over. -/
  | completed (output : Array UInt8)
  /-- The program failed or ran into the ceiling. -/
  | failed (fault : Fault) (output : Array UInt8)
  /-- It was asked to stop. -/
  | interrupted (output : Array UInt8)
deriving DecidableEq, Repr

/-- An animation that has ended. -/
structure Animation where
  ending : AnimationEnd
  /-- The frames drawn, in order. -/
  frames : List String
  /-- The interpreter it leaves. -/
  interpreter : Interpreter

namespace Viewer

/-- What clears the screen and takes the cursor home. -/
def clearing : String := "\x1b[2J\x1b[1;1H"

/-- The lines above the memory window of a frame. -/
def frameHead (v : Viewer) (it : Interpreter) (r : Record) : List Line :=
  [Theme.headingLine "Brainfuck Execution Visualizer", []] ++
    (match it.program? with
      | some p => [Line.plain "Code:", v.codeLine p r.ip]
      | none => []) ++
    [[.plain "Current instruction: ", .styled (Theme.instruction r.instruction)
        r.instruction.text],
      Line.plain ("Position: " ++ toString r.ip)]

/-- The frame after the instruction of a record; the memory window is centred on the head. -/
def frame (v : Viewer) (it : Interpreter) (r : Record) : String :=
  let m := it.machine
  let written := Text.showBytes m.output
  (if v.clearScreen then clearing else "") ++
    v.display (v.frameHead it r) ++
    v.memory m.tape m.head (m.head - v.visibleCells / 2) ++
    (if written.isEmpty then "" else "Output so far: " ++ written ++ "\n")

/-- Steps through `code` for at most `fuel` instructions; `drawn` holds the frames so far,
the latest first. -/
def animateLoop (v : Viewer) (draw : Bool) (code : String) :
    (fuel : Nat) → (stop : Option Nat) → Interpreter → (drawn : List String) → Animation
  | 0, stop, it, drawn =>
      match stop with
      | some 0 => ⟨.interrupted it.machine.output, drawn.reverse, it⟩
      | _ => ⟨.failed (.ceiling it.config.maxIterations) it.machine.output, drawn.reverse, it⟩
  | fuel + 1, stop, it, drawn =>
      if stop = some 0 then ⟨.interrupted it.machine.output, drawn.reverse, it⟩
      else if it.config.maxIterations ≤ it.machine.iterations then
        ⟨.failed (.ceiling it.config.maxIterations) it.machine.output, drawn.reverse, it⟩
      else
        match it.step code with
        | (.stepped record _, it) =>
            let drawn := if draw then v.frame it record :: drawn else drawn
            animateLoop v draw code fuel (stop.map (· - 1)) it drawn
        | (.done output, it) => ⟨.completed output, drawn.reverse, it⟩
        | (.failed fault, it) => ⟨.failed fault it.machine.output, drawn.reverse, it⟩

/-- Steps `code` to its end, drawing a frame after every instruction if `draw` is set.

The ceiling itself is fuel enough: every turn executes an instruction, and an interpreter that
has executed that many is stopped by its count. -/
def animate (v : Viewer) (draw : Bool) (code : String) (stop : Option Nat) (it : Interpreter) :
    Animation :=
  v.animateLoop draw code it.config.maxIterations stop it []

end Viewer

end TapeTutor
