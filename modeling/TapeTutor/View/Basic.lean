import TapeTutor.Settings

/-!
# Viewers

A viewer shows tapes, programs and histories as text.  It knows the colours to use, how many
cells fit into a memory view, whether to use colour at all and whether to clear the screen
before each frame of an animation.
-/

namespace TapeTutor

/-- How things are shown. -/
structure Viewer where
  palette : Palette := {}
  /-- The number of cells in a memory view. -/
  visibleCells : Nat := 20
  /-- Whether to paint. -/
  color : Bool := false
  /-- Whether a frame of an animation clears the screen first. -/
  clearScreen : Bool := false
deriving DecidableEq, Repr

namespace Viewer

/-- The viewer that settings ask for; it shows at least one cell. -/
def ofSettings (s : Settings) (color clearScreen : Bool) : Viewer where
  palette := s.palette
  visibleCells := max 1 s.visibleCells
  color := color
  clearScreen := clearScreen

/-- Lines as text, each of them ended. -/
def display (v : Viewer) (lines : List Line) : String := renderLines v.color lines

end Viewer

end TapeTutor
