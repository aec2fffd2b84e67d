import TapeTutor.Instruction
import TapeTutor.Style.Paint

/-!
# The theme

Fixed shades for headings and instructions, and the `Palette`: the nine colours that
settings can change, with their defaults.
-/

namespace TapeTutor

namespace Shade

/-- Letters on a dark ground. -/
def text : Color := .rgb 205 214 244

/-- Letters that should recede. -/
def subtle : Color := .rgb 108 112 134

def red : Color := .rgb 243 139 168

def green : Color := .rgb 166 227 161

def yellow : Color := .rgb 249 226 175

def blue : Color := .rgb 137 180 250

def mauve : Color := .rgb 203 166 247

def peach : Color := .rgb 250 179 135

def teal : Color := .rgb 148 226 213

def sky : Color := .rgb 137 220 235

end Shade

/-- The colours that settings can change. -/
structure Palette where
  /-- A cell that holds zero. -/
  cellZero : Color := Shade.subtle
  /-- A cell that holds anything else. -/
  cellNonzero : Color := Shade.text
  /-- Cells read as characters, and labels of output. -/
  ascii : Color := Shade.yellow
  /-- The numbers of the cells. -/
  index : Color := Shade.subtle
  /-- The mark under the head. -/
  pointer : Color := Shade.green
  /-- The frame of a table. -/
  border : Color := Shade.subtle
  success : Color := Shade.green
  error : Color := Shade.red
  info : Color := Shade.sky
deriving DecidableEq, Repr

namespace Theme

/-- The shade of an instruction: moves are blue-green, changes green or red, traffic with the
outside yellow or peach, loops mauve. -/
def shade : Instruction → Color
  | .right => Shade.sky
  | .left => Shade.teal
  | .increment => Shade.green
  | .decrement => Shade.red
  | .output => Shade.yellow
  | .input => Shade.peach
  | .loopOpen => Shade.mauve
  | .loopClose => Shade.mauve

/-- How an instruction looks. -/
def instruction (i : Instruction) : Style := .boldColored (shade i)

/-- How a heading looks. -/
def heading : Style := .boldColored Shade.blue

/-- A heading as a line of its own. -/
def headingLine (text : String) : Line := [.styled heading text]

end Theme

end TapeTutor
