import TapeTutor.Program
import TapeTutor.View.Basic

/-!
# A view of the program

`Viewer.code` shows up to sixty instructions around a position and marks the one there: by a
coloured ground with colour, by parentheses without.  Dots tell that something is left out
on that side.
-/

namespace TapeTutor.Viewer

/-- The number of instructions shown. -/
def codeWindow : Nat := 60

/-- The first position shown when the view is centred on `position`. -/
def codeStart (position : Nat) : Nat := position - codeWindow / 2

/-- The position behind the last one shown. -/
def codeStop (p : Program) (position : Nat) : Nat := min (codeStart position + codeWindow) p.size

/-- The marked instruction. -/
def marked (v : Viewer) (i : Instruction) : Span :=
  if v.color then
    .styled { foreground := some .black, background := some v.palette.success } i.text
  else .plain ("(" ++ i.text ++ ")")

/-- The instruction `i` at `place`, marked if that is the position looked at. -/
def codeSpan (v : Viewer) (position : Nat) (i : Instruction) (place : Nat) : Span :=
  if place = position then v.marked i else .styled (Theme.instruction i) i.text

/-- Dots, if anything is left out. -/
def ellipsis (hidden : Bool) : Line := if hidden then Line.plain "..." else []

/-- The instructions around a position. -/
def codeLine (v : Viewer) (p : Program) (position : Nat) : Line :=
  let start := codeStart position
  let stop := codeStop p position
  let window := (p.code.extract start stop).toList.zipIdx start
  ellipsis (0 < start) ++ window.map (fun (i, place) => v.codeSpan position i place) ++
    ellipsis (stop < p.size)

/-- The instructions around a position as text. -/
def code (v : Viewer) (p : Program) (position : Nat) : String :=
  Line.render v.color (v.codeLine p position)

end TapeTutor.Viewer
